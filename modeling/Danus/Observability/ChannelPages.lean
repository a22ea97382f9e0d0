import Danus.Lib.JsonPieces
import Danus.Observability.App

/-! The entries that the dashboard shows of a channel, against those that were appended. -/
namespace Danus.Observability
open Python Core

section Lines
variable {s l : PyStr}

/-- A text is spaces, the stripped text and more. -/
theorem strip_split (s : PyStr) :
    ∃ ws ws', s = ws ++ (strip s ++ ws') ∧ ∀ c ∈ ws, isSpace c = true := by
  have hrstrip : ∃ ws', lstrip s = strip s ++ ws' := by
    have h := List.takeWhile_append_dropWhile (p := isSpace) (l := (lstrip s).reverse)
    have hrev := congrArg List.reverse h
    rw [List.reverse_append, List.reverse_reverse] at hrev
    exact ⟨_, hrev.symm⟩
  obtain ⟨ws', hws'⟩ := hrstrip
  refine ⟨s.takeWhile isSpace, ws', ?_, fun c hc => List.mem_takeWhile_imp hc⟩
  rw [← hws']
  exact (List.takeWhile_append_dropWhile).symm

theorem not_isRawBreak {c : Char} (h : isLineBreak c = false) : isRawBreak c = false := by
  rw [isRawBreak, h, Bool.false_and]

end Lines

section Payloads
variable {py : Interpreter} {record v : Json} {records : List Json}

theorem unbroken_lineText (hw : Writable py record) : Unbroken (lineText record) := by
  obtain ⟨items, rfl⟩ := hw.object
  obtain ⟨s, hs⟩ := lineText_braced items
  rw [hs]
  intro c hc
  rw [List.getLast?_append, List.getLast?_singleton] at hc
  cases hc
  decide

/-- The lines of a channel, by its records. -/
theorem splitlines_records (hw : ∀ r ∈ records, Writable py r) :
    splitlines (records.flatMap fun r => lineText r ++ ['\n']) =
      records.flatMap fun r => linesOf (lineText r) := by
  induction records with
  | nil => rfl
  | cons r records ih =>
    rw [List.flatMap_cons, List.flatMap_cons, List.append_assoc, List.singleton_append,
      splitlines_append (unbroken_lineText (hw r List.mem_cons_self)),
      ih fun r' hr => hw r' (List.mem_cons_of_mem _ hr)]

theorem jsonlPayload_some {l : PyStr} (h : jsonlPayload l = some v) :
    l ≠ [] ∧ Json.parse (strip l) = some v := by
  simp only [jsonlPayload] at h
  split_ifs at h with hnil
  refine ⟨?_, ?_⟩
  · rintro rfl
    exact hnil rfl
  · split at h
    · next items hp =>
      cases h
      exact hp
    · cases h

/-- No line of a record's text gives a string with a line break in it. -/
theorem payload_oneLine (hw : Writable py record) (hd : record.distinctKeys = true) {l : PyStr}
    (hl : l ∈ linesOf (lineText record)) (hv : jsonlPayload l = some v) : v.OneLine := by
  have hveils : Json.Veils (lineText record) record.strings := Json.veils_dumps record
  have hprint := printable_lineText record
  by_cases hbreak : ∃ c ∈ lineText record, isLineBreak c = true
  · obtain ⟨e, hm, he⟩ := hbreak
    have hne : lineText record ≠ [] := List.ne_nil_of_mem hm
    rw [linesOf, if_neg hne] at hl
    obtain ⟨hline, a, b, hsplit, ha⟩ := splitlinesFrom_pieces (by simp) hl
    rw [List.reverse_nil, List.nil_append] at hsplit
    obtain ⟨hlne, hparse⟩ := jsonlPayload_some hv
    rcases ha with rfl | ⟨a', c, rfl, hc⟩
    · -- the first line was cut
      have hcut : l ≠ lineText record := by
        rintro rfl
        rw [hline e hm] at he
        cases he
      rw [jsonlPayload_cut hw hlne ⟨b, hsplit.symm⟩ hcut] at hv
      cases hv
    · -- any other one starts inside of a string
      obtain ⟨ws, ws', hstrip, hws⟩ := strip_split l
      have hraw : isRawBreak c = true := isRawBreak_of_printable hc (hprint c (by simp [hsplit]))
      have htext : lineText record = a' ++ c :: (ws ++ (strip l ++ (ws' ++ b))) := by
        rw [hsplit]
        nth_rewrite 1 [hstrip]
        simp only [List.append_assoc, List.cons_append, List.nil_append]
      rw [htext] at hveils
      have hstrings := Json.piece_strings hveils hraw (fun c hc => Json.noQuote_of_isSpace (hws c hc)) hparse
      intro s hs d hd
      have hmem : d ∈ l := by
        rw [hstrip]
        exact List.mem_append_right _ (List.mem_append_left _ (hstrings s hs hd))
      exact not_isRawBreak (hline d hmem)
  · -- the whole record is on the line
    have hplain : ∀ c ∈ lineText record, isLineBreak c = false := by
      intro c hc
      rw [← Bool.not_eq_true]
      exact fun h => hbreak ⟨c, hc, h⟩
    rw [linesOf_line hplain, List.mem_singleton] at hl
    rw [hl, jsonlPayload_record hw hd] at hv
    cases hv
    intro s hs c hc
    rw [← Bool.not_eq_true]
    intro hraw
    have hmem := (hveils.mem c hraw).mpr ⟨s, hs, hc⟩
    rw [not_isRawBreak (hplain c hmem)] at hraw
    cases hraw

/-- What the dashboard loads of a channel. -/
theorem loadJsonl_records (hw : ∀ r ∈ records, Writable py r) : loadJsonl (records.flatMap entryLine) =
    .ok ((records.flatMap fun r => linesOf (lineText r)).filterMap jsonlPayload) := by
  rw [loadJsonl, encode_records, readText, decodeUtf8_encodeUtf8]
  simp only [Except.map, universalNewlines_self (no_return records), splitlines_records hw]

/-- Nothing that is loaded has a string with a line break in it. -/
theorem loadJsonl_oneLine (hw : ∀ r ∈ records, Writable py r) (hd : ∀ r ∈ records, r.distinctKeys = true)
    {shown : List Json} (h : loadJsonl (records.flatMap entryLine) = .ok shown) :
    ∀ v ∈ shown, v.OneLine := by
  rw [loadJsonl_records hw] at h
  cases h
  intro v hv
  obtain ⟨l, hl, hpayload⟩ := List.mem_filterMap.mp hv
  obtain ⟨r, hr, hline⟩ := List.mem_flatMap.mp hl
  exact payload_oneLine (hw r hr) (hd r hr) hline hpayload

/-- Records without such strings are loaded as they are. -/
theorem loadJsonl_plain (hw : ∀ r ∈ records, Writable py r) (hd : ∀ r ∈ records, r.distinctKeys = true)
    (hone : ∀ r ∈ records, r.OneLine) : loadJsonl (records.flatMap entryLine) = .ok records := by
  have hlines : ∀ r ∈ records, linesOf (lineText r) = [lineText r] := by
    intro r hr
    refine linesOf_line fun c hc => ?_
    rw [← Bool.not_eq_true]
    intro hbreak
    have hraw := isRawBreak_of_printable hbreak (printable_lineText r c hc)
    have hveils : Json.Veils (lineText r) r.strings := Json.veils_dumps r
    obtain ⟨s, hs, hcs⟩ := (hveils.mem c hraw).mp hc
    rw [hone r hr s hs c hcs] at hraw
    cases hraw
  rw [loadJsonl_records hw]
  congr 1
  induction records with
  | nil => rfl
  | cons r records ih =>
    rw [List.flatMap_cons, hlines r List.mem_cons_self, List.singleton_append,
      List.filterMap_cons_some (jsonlPayload_record (hw r List.mem_cons_self) (hd r List.mem_cons_self)),
      ih (fun r' hr => hw r' (List.mem_cons_of_mem _ hr)) (fun r' hr => hd r' (List.mem_cons_of_mem _ hr))
        (fun r' hr => hone r' (List.mem_cons_of_mem _ hr))
        fun r' hr => hlines r' (List.mem_cons_of_mem _ hr)]

theorem mapM_length {α β ε : Type} {f : α → Except ε β} {as : List α} {bs : List β}
    (h : as.mapM f = .ok bs) : bs.length = as.length := by
  induction as generalizing bs with
  | nil =>
    cases h
    rfl
  | cons a as ih =>
    rw [List.mapM_cons] at h
    cases ha : f a with
    | error e =>
      rw [ha] at h
      cases h
    | ok b =>
      rw [ha] at h
      cases has : as.mapM f with
      | error e =>
        simp only [has] at h
        cases h
      | ok cs =>
        simp only [has] at h
        cases h
        rw [List.length_cons, List.length_cons, ih has]

theorem sortEntries_perm {entries shown : List Json} (h : sortEntries entries = .ok shown) :
    shown.Perm entries := by
  rw [sortEntries] at h
  cases hk : entries.mapM timestamp with
  | error e =>
    rw [hk] at h
    cases h
  | ok keys =>
    rw [hk] at h
    cases h
    have hlen := mapM_length hk
    have hsnd : (keys.zip entries).map Prod.snd = entries := List.map_snd_zip (Nat.le_of_eq hlen.symm)
    have hperm := (List.perm_insertionSort (fun a b : PyStr × Json => Json.strLe b.1 a.1 = true)
      (keys.zip entries)).map Prod.snd
    rwa [hsnd] at hperm

/-- An entry with a text for its time. -/
def Stamped (entry : Json) : Prop := ∃ s, entry.get? "timestamp_utc".toList = some (.str s)

theorem sortEntries_stamped {entries : List Json} (h : ∀ e ∈ entries, Stamped e) :
    ∃ shown, sortEntries entries = .ok shown := by
  have hkeys : ∃ keys, entries.mapM timestamp = .ok keys := by
    induction entries with
    | nil => exact ⟨[], rfl⟩
    | cons e entries ih =>
      obtain ⟨s, hs⟩ := h e List.mem_cons_self
      obtain ⟨keys, hkeys⟩ := ih fun e' he => h e' (List.mem_cons_of_mem _ he)
      have ht : timestamp e = .ok s := by rw [timestamp, hs]
      refine ⟨s :: keys, ?_⟩
      rw [List.mapM_cons, ht, hkeys]
      rfl
  obtain ⟨keys, hkeys⟩ := hkeys
  rw [sortEntries, hkeys]
  exact ⟨_, rfl⟩

/-- A channel is shown as it was appended just where no string in it has a line break that is written
as it is. -/
theorem buildChannel_exact {kind : PyStr} {project : Project} (hkind : kind ∈ channelKinds)
    (hfile : project.channel kind = records.flatMap entryLine) (hw : ∀ r ∈ records, Writable py r)
    (hd : ∀ r ∈ records, r.distinctKeys = true) (hs : ∀ r ∈ records, Stamped r) :
    (∃ shown, buildChannel kind project = .ok shown ∧ shown.Perm records) ↔
      ∀ r ∈ records, r.OneLine := by
  have hbuild : buildChannel kind project =
      (loadJsonl (records.flatMap entryLine)).bind sortEntries := by
    rw [buildChannel, if_neg (not_not.mpr hkind), hfile]
  constructor
  · rintro ⟨shown, hshown, hperm⟩ r hr
    rw [hbuild, loadJsonl_records hw] at hshown
    exact loadJsonl_oneLine hw hd (loadJsonl_records hw) r
      ((sortEntries_perm hshown).subset (hperm.symm.subset hr))
  · intro hone
    obtain ⟨shown, hshown⟩ := sortEntries_stamped hs
    refine ⟨shown, ?_, sortEntries_perm hshown⟩
    rw [hbuild, loadJsonl_plain hw hd hone]
    exact hshown

end Payloads
end Danus.Observability
