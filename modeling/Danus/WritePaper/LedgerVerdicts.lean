import Danus.FactGraph.RoundTrip
import Danus.WritePaper.LedgerRows

/-! Verdicts change the rows of their own keys only, as far as what they bring stays on its line. -/
namespace Danus.WritePaper.References
open Python Entries
open Danus.FactGraph (Runtime strOf asciiRuntime)
open Danus.Integrations (truthy)

section Verdicts
variable [Runtime] {sections written : List Section} {vs : List Verdict} {v : Verdict} {key : PyStr}
  {us body : Body}

/-- The names that verdicts write to. -/
def writtenFields : List PyStr := metadataFields.map Prod.snd ++ ["source_url".toList, verifiedBy, "note".toList]

omit [Runtime] in
theorem writtenFields_names : ∀ f ∈ writtenFields, f ≠ raw ∧ f.head?.any isNameStart = true ∧ NoBreak f := by
  decide

theorem nameChar_of_ascii {c : Char} (h : (isAlnumAscii c || c == '_' || c == '-') = true) :
    isNameChar c = true := by
  rw [isNameChar, h, Bool.true_or]

theorem writtenFields_chars : ∀ f ∈ writtenFields, ∀ c ∈ f, isNameChar c = true := by
  have hascii : ∀ f ∈ writtenFields, ∀ c ∈ f, (isAlnumAscii c || c == '_' || c == '-') = true := by decide
  exact fun f hf c hc => nameChar_of_ascii (hascii f hf c hc)

/-- Free text that stays on the line it is put on. -/
def SafeValue (value : PyStr) : Prop := NoBreak value ∧ lstrip value = value

/-- The first `verified-by` of a row. -/
def mark (body : Body) : Option PyStr := ((ofKey verifiedBy body).head?).map Prod.snd

theorem assignments_fields (h : v.assignments = some us) : ∀ u ∈ us, u.1 ∈ writtenFields := by
  obtain ⟨src, _, h⟩ := Option.bind_eq_some_iff.mp h
  obtain ⟨note, _, rfl⟩ := Option.map_eq_some_iff.mp h
  intro u hu
  rcases List.mem_append.mp hu with hu | hu
  · split_ifs at hu
    · rcases List.mem_append.mp hu with hu | hu
      · obtain ⟨f, hf, he⟩ := List.mem_filterMap.mp hu
        obtain ⟨value, _, rfl⟩ := Option.map_eq_some_iff.mp he
        exact List.mem_append_left _ (List.mem_map_of_mem hf)
      · refine List.mem_append_right _ ?_
        rcases List.mem_cons.mp hu with rfl | hu
        · exact List.mem_cons_self
        · rw [List.mem_singleton.mp hu]
          exact List.mem_cons_of_mem _ List.mem_cons_self
    · rw [List.mem_singleton.mp hu]
      exact List.mem_append_right _ (List.mem_cons_of_mem _ List.mem_cons_self)
  · split_ifs at hu
    · cases hu
    · rw [List.mem_singleton.mp hu]
      exact List.mem_append_right _ (List.mem_cons_of_mem _ (List.mem_cons_of_mem _ List.mem_cons_self))

/-- Every verdict marks its row: as verified where it confirms the reference. -/
theorem assignments_mark (h : v.assignments = some us) : ∃ src,
    strippedText "source_url".toList v.obj = some src ∧ (lastOf verifiedBy us = some verifierMark ↔ v.Confirms src) ∧
      lastOf verifiedBy us ≠ none := by
  obtain ⟨src, hsrc, h⟩ := Option.bind_eq_some_iff.mp h
  obtain ⟨note, _, rfl⟩ := Option.map_eq_some_iff.mp h
  refine ⟨src, hsrc, ?_⟩
  have hnote (l : Body) : lastOf verifiedBy (l ++ if note = [] then [] else [("note".toList, note)]) =
      lastOf verifiedBy l := by
    split_ifs
    · rw [List.append_nil]
    · have hne : ("note".toList, note).1 ≠ verifiedBy := show "note".toList ≠ verifiedBy by decide
      rw [lastOf_concat, if_neg hne]
  rw [hnote]
  split_ifs with hc
  · have hpair (l : Body) : l ++ [("source_url".toList, src), (verifiedBy, verifierMark)] =
        (l ++ [("source_url".toList, src)]) ++ [(verifiedBy, verifierMark)] := by
      rw [List.append_assoc]
      rfl
    rw [hpair, lastOf_concat, if_pos rfl]
    exact ⟨iff_of_true rfl hc, Option.some_ne_none _⟩
  · have hother : "unverified (".toList ++ v.ruling.text ++ ")".toList ≠ verifierMark := by
      cases v.ruling <;> decide
    have hone : lastOf verifiedBy [(verifiedBy, "unverified (".toList ++ v.ruling.text ++ ")".toList)] =
        some ("unverified (".toList ++ v.ruling.text ++ ")".toList) :=
      (lastOf_concat verifiedBy [] _).trans (if_pos rfl)
    rw [hone]
    exact ⟨iff_of_false (fun he => hother (Option.some.inj he)) hc, Option.some_ne_none _⟩

/-- What the verdicts about a key assign, in order. -/
def assigned (key : PyStr) (vs : List Verdict) : Body :=
  (vs.filter fun v => decide (v.key = key)).flatMap fun v => v.assignments.getD []

/-- The updates of the rows, where no verdict raises. -/
def updates (vs : List Verdict) : List (PyStr × (Body → Body)) := vs.map fun v => v.update (v.assignments.getD [])

theorem applyVerdicts_eq (sections : List Section) (vs : List Verdict) : applyVerdicts sections vs =
    if ∀ v ∈ vs, v.assignments ≠ none then some (upsertAll [] (updates vs) sections) else none := by
  induction vs generalizing sections with
  | nil => simp [applyVerdicts, updates, upsertAll]
  | cons v vs ih =>
    rw [applyVerdicts]
    cases ha : v.assignments with
    | none =>
      rw [if_neg fun hall => hall v List.mem_cons_self ha]
      rfl
    | some us =>
      have hupdate : updates (v :: vs) = v.update us :: updates vs := by
        rw [updates, List.map_cons, ha]
        rfl
      have hall : (∀ w ∈ v :: vs, w.assignments ≠ none) ↔ ∀ w ∈ vs, w.assignments ≠ none := by
        rw [List.forall_mem_cons, ha]
        exact and_iff_right (Option.some_ne_none us)
      rw [Option.bind_some, ih, hupdate]
      simp only [hall]
      rfl

theorem effect_updates (key : PyStr) (vs : List Verdict) (body : Body) :
    effect key (updates vs) body = setAll (assigned key vs) body := by
  unfold effect
  induction vs generalizing body with
  | nil => rfl
  | cons v vs ih =>
    have hcons : updates (v :: vs) = v.update (v.assignments.getD []) :: updates vs := rfl
    rw [hcons, ofKey_cons, assigned]
    by_cases hk : v.key = key
    · have hkey : (v.update (v.assignments.getD [])).1 = key := hk
      rw [if_pos hkey, List.filter_cons_of_pos (by simpa using hk), List.flatMap_cons, setAll_append,
        List.foldl_cons, ih]
      rfl
    · have hkey : (v.update (v.assignments.getD [])).1 ≠ key := hk
      rw [if_neg hkey, List.filter_cons_of_neg (by simpa using hk)]
      exact ih body

theorem updates_keys (vs : List Verdict) : (updates vs).map Prod.fst = vs.map (·.key) := by
  rw [updates, List.map_map]
  rfl

/-- The rows of a key after the verdicts: the last one took what they assign. -/
theorem ofKey_named (hk : key ∈ vs.map (·.key)) (sections : List Section) :
    ofKey key (upsertAll [] (updates vs) sections) =
      (ofKey key sections).dropLast ++ [(key, setAll (assigned key vs) (lastOr [] key sections))] := by
  rw [← updates_keys] at hk
  rw [ofKey_upsertAll, effect_updates, if_pos hk]

theorem ofKey_unnamed (hk : key ∉ vs.map (·.key)) (sections : List Section) :
    ofKey key (upsertAll [] (updates vs) sections) = ofKey key sections := by
  rw [← updates_keys] at hk
  rw [ofKey_upsertAll, if_neg hk]

/-- When the written ledger says what was meant: no heading is bare or blank, and no line `- _raw:` of a row
holds what reads as something else; every source and note that counts is text; a new row has a key that reads
as itself; and what ends up in a field stays on its line. -/
structure Storable (file : PyStr) (vs : List Verdict) : Prop where
  headings : ∀ line ∈ splitlines file, ∀ rest, ledgerHead line = some rest → rest ≠ []
  rows : ∀ p, parseLedgerSections file = some p → ∀ s ∈ p.2, s.1 ≠ [] ∧ ∀ i ∈ s.2, i.1 = raw → Rereads i
  texts : ∀ v ∈ vs, strippedText "source_url".toList v.obj ≠ none ∧ strippedText "note".toList v.obj ≠ none
  keys : ∀ p, parseLedgerSections file = some p → ∀ v ∈ vs, v.key ∉ Entries.keys p.2 → SafeKey v.key
  values : ∀ key field value, lastOf field (assigned key vs) = some value → SafeValue value

theorem assigned_fields {u : PyStr × PyStr} (hu : u ∈ assigned key vs) : u.1 ∈ writtenFields := by
  obtain ⟨v, _, hu⟩ := List.mem_flatMap.mp hu
  cases ha : v.assignments with
  | none =>
    rw [ha] at hu
    cases hu
  | some us =>
    rw [ha] at hu
    exact assignments_fields ha u hu

theorem rereads_written {field value : PyStr} (hf : field ∈ writtenFields) :
    Rereads (field, value) ↔ SafeValue value := by
  obtain ⟨hraw, hstart, hbreak⟩ := writtenFields_names field hf
  exact rereads_field hraw hstart (writtenFields_chars field hf) hbreak

omit [Runtime] in
/-- The first entries are set, the rest of the body stays. -/
theorem mem_setAll {i : PyStr × PyStr} (h : i ∈ setAll us body) :
    lastOf i.1 us = some i.2 ∨ i ∈ body := by
  have hmem := mem_ofKey.mpr ⟨h, rfl⟩
  rw [ofKey_setAll] at hmem
  cases hl : lastOf i.1 us with
  | none =>
    rw [hl] at hmem
    exact .inr (mem_ofKey.mp hmem).1
  | some value =>
    rw [hl] at hmem
    rcases List.mem_cons.mp hmem with he | hm
    · exact .inl (congrArg (fun q => some q.2) he).symm
    · exact .inr (mem_ofKey.mp (List.mem_of_mem_tail hm)).1

omit [Runtime] in
theorem lastOr_mem {s : Section} (h : s ∈ ofKey key sections) :
    s ∈ (ofKey key sections).dropLast ∨ s = (key, lastOr [] key sections) := by
  have hne : ofKey key sections ≠ [] := List.ne_nil_of_mem h
  have hsplit := List.dropLast_append_getLast hne
  rw [← hsplit, List.mem_append, List.mem_singleton] at h
  rcases h with h | h
  · exact .inl h
  · right
    have hlast : lastOr [] key sections = ((ofKey key sections).getLast hne).2 := by
      rw [lastOr, lastOf, List.getLast?_eq_some_getLast hne]
      rfl
    have hkey : ((ofKey key sections).getLast hne).1 = key := (mem_ofKey.mp (List.getLast_mem hne)).2
    rw [h, hlast]
    exact Prod.ext hkey rfl

omit [Runtime] in
/-- The row that takes the verdicts of a key was one of its rows, or is new. -/
theorem lastOr_cases (key : PyStr) (sections : List Section) :
    (key, lastOr [] key sections) ∈ sections ∨ key ∉ Entries.keys sections ∧ lastOr [] key sections = [] := by
  by_cases hk : key ∈ Entries.keys sections
  · obtain ⟨s, hs, rfl⟩ := List.mem_map.mp hk
    left
    have hne : ofKey s.1 sections ≠ [] := List.ne_nil_of_mem (mem_ofKey.mpr ⟨hs, rfl⟩)
    have hmem := List.getLast_mem hne
    have hlast : lastOr [] s.1 sections = ((ofKey s.1 sections).getLast hne).2 := by
      rw [lastOr, lastOf, List.getLast?_eq_some_getLast hne]
      rfl
    obtain ⟨hin, hkey⟩ := mem_ofKey.mp hmem
    have he : (ofKey s.1 sections).getLast hne = (s.1, ((ofKey s.1 sections).getLast hne).2) :=
      Prod.ext hkey rfl
    rw [hlast, ← he]
    exact hin
  · right
    rw [lastOr, lastOf, ofKey_of_notMem hk]
    exact ⟨hk, rfl⟩

/-- The rows of a ledger as they were read. -/
def ReadRows (sections : List Section) : Prop :=
  ∀ s ∈ sections, (ReadKey s.1 ∧ isDelta s.1 = false) ∧ ∀ i ∈ s.2, ReadItem i

/-- What is written is safe just when the old rows, the new keys and the last values are. -/
theorem safe_written (hread : ReadRows sections) : Safe (upsertAll [] (updates vs) sections) ↔
    (∀ s ∈ sections, s.1 ≠ [] ∧ ∀ i ∈ s.2, i.1 = raw → Rereads i) ∧
    (∀ v ∈ vs, v.key ∉ Entries.keys sections → SafeKey v.key) ∧
    ∀ key field value, lastOf field (assigned key vs) = some value → SafeValue value := by
  have hwritten (key : PyStr) (hk : key ∈ vs.map (·.key)) :
      (key, setAll (assigned key vs) (lastOr [] key sections)) ∈ upsertAll [] (updates vs) sections := by
    refine ((@mem_ofKey _ _ _ _ key _).mp ?_).1
    rw [ofKey_named hk]
    exact List.mem_append_right _ (List.mem_singleton_self _)
  obtain ⟨hset, hold, _⟩ := keys_upsertAll [] (updates vs) sections
  constructor
  · intro hsafe
    have hkeys (key : PyStr) (hk : key ∈ Entries.keys (upsertAll [] (updates vs) sections)) : SafeKey key := by
      obtain ⟨s, hs, rfl⟩ := List.mem_map.mp hk
      exact (hsafe s hs).1
    refine ⟨fun s hs => ⟨(hkeys s.1 (hold _ (List.mem_map_of_mem hs))).1, fun i hi hraw => ?_⟩,
      fun v hv _ => hkeys v.key (hset (v.update (v.assignments.getD [])) (List.mem_map_of_mem hv)),
      fun key field value hl => ?_⟩
    · have hin := mem_ofKey.mpr ⟨hs, rfl⟩
      by_cases hk : s.1 ∈ vs.map (·.key)
      · rcases lastOr_mem hin with hd | he
        · refine (hsafe s ((@mem_ofKey _ _ _ _ s.1 _).mp ?_).1).2 i hi
          rw [ofKey_named hk]
          exact List.mem_append_left _ hd
        · have hbody : lastOr [] s.1 sections = s.2 := (congrArg Prod.snd he).symm
          refine (hsafe _ (hwritten s.1 hk)).2 i ?_
          rw [hbody]
          refine ((@mem_ofKey _ _ _ _ raw _).mp ?_).1
          have hnone : lastOf raw (assigned s.1 vs) = none := by
            refine lastOf_eq_none.mpr fun hm => ?_
            obtain ⟨u, hu, hur⟩ := List.mem_map.mp hm
            exact (writtenFields_names _ (assigned_fields hu)).1 hur
          rw [ofKey_setAll, hnone]
          exact mem_ofKey.mpr ⟨hi, hraw⟩
      · refine (hsafe s ((@mem_ofKey _ _ _ _ s.1 _).mp ?_).1).2 i hi
        rw [ofKey_unnamed hk]
        exact hin
    · have hu := lastOf_mem hl
      have hk : key ∈ vs.map (·.key) := by
        obtain ⟨v, hv, _⟩ := List.mem_flatMap.mp hu
        obtain ⟨hv, hkey⟩ := List.mem_filter.mp hv
        exact List.mem_map.mpr ⟨v, hv, of_decide_eq_true hkey⟩
      refine (rereads_written (assigned_fields hu)).mp ((hsafe _ (hwritten key hk)).2 (field, value) ?_)
      refine ((@mem_ofKey _ _ _ _ field _).mp ?_).1
      rw [ofKey_setAll, hl]
      exact List.mem_cons_self
  · rintro ⟨hrows, hnew, hvalues⟩ s hs
    have hrow (s : Section) (hs : s ∈ sections) : SafeKey s.1 ∧ ∀ i ∈ s.2, Rereads i := by
      refine ⟨⟨(hrows s hs).1, (hread s hs).1⟩, fun i hi => ?_⟩
      by_cases hraw : i.1 = raw
      · exact (hrows s hs).2 i hi hraw
      · exact rereads_read ((hread s hs).2 i hi) hraw
    have hin := mem_ofKey.mpr ⟨hs, rfl⟩
    by_cases hk : s.1 ∈ vs.map (·.key)
    · rw [ofKey_named hk] at hin
      rcases List.mem_append.mp hin with hd | he
      · exact hrow s (mem_ofKey.mp ((List.dropLast_sublist _).mem hd)).1
      · have hs2 : s.2 = setAll (assigned s.1 vs) (lastOr [] s.1 sections) :=
          congrArg Prod.snd (List.mem_singleton.mp he)
        have hbase : SafeKey s.1 ∧ ∀ i ∈ lastOr [] s.1 sections, Rereads i := by
          rcases lastOr_cases s.1 sections with hm | ⟨hnot, hnil⟩
          · exact hrow _ hm
          · obtain ⟨v, hv, hkey⟩ := List.mem_map.mp hk
            rw [hnil]
            exact ⟨hkey ▸ hnew v hv (by rw [hkey]; exact hnot), by simp⟩
        refine ⟨hbase.1, fun i hi => ?_⟩
        rw [hs2] at hi
        rcases mem_setAll hi with hl | hm
        · exact (rereads_written (assigned_fields (lastOf_mem hl))).mpr (hvalues _ _ _ hl)
        · exact hbase.2 i hm
    · rw [ofKey_unnamed hk] at hin
      exact hrow s (mem_ofKey.mp hin).1

theorem parse_universalNewlines (text : PyStr) :
    parseLedgerSections (universalNewlines text) = parseLedgerSections text := by
  rw [parseLedgerSections, splitlines_universalNewlines]
  rfl

/-- Reading a ledger raises at a bare heading only. -/
theorem parse_ne_none {file : PyStr} : parseLedgerSections file ≠ none ↔
    ∀ line ∈ splitlines file, ∀ rest, ledgerHead line = some rest → rest ≠ [] := by
  have hsplit := List.takeWhile_append_dropWhile (p := fun line => (ledgerHead line).isNone)
    (l := splitlines file)
  have hnone : parseLedgerSections file = none ↔ ∃ line ∈ (splitlines file).dropWhile
      (fun line => (ledgerHead line).isNone), ledgerHead line = some [] := by
    rw [parseLedgerSections, Option.map_eq_none_iff, sectionsFrom_eq_none]
  rw [Ne, hnone]
  constructor
  · rintro hno line hl rest hr rfl
    refine hno ⟨line, ?_, hr⟩
    rw [← hsplit, List.mem_append] at hl
    rcases hl with hl | hl
    · have h := List.mem_takeWhile_imp hl
      rw [hr] at h
      cases h
    · exact hl
  · rintro hall ⟨line, hl, hb⟩
    exact hall line ((List.dropWhile_sublist _).mem hl) [] hb rfl

omit [Runtime] in
/-- Blank lines hold no field. -/
theorem ofKey_content {f : PyStr} (hf : f ≠ raw) (body : Body) : ofKey f (content body) = ofKey f body := by
  rw [content, ofKey, ofKey, List.filter_filter]
  refine List.filter_congr fun i _ => ?_
  by_cases h : i.1 = f
  · have hblank : isBlank i = false := by
      rw [isBlank, h, beq_false_of_ne hf, Bool.false_and]
    rw [hblank]
    simp
  · simp [h]

omit [Runtime] in
theorem mark_content (body : Body) : mark (content body) = mark body := by
  have hraw : verifiedBy ≠ raw := by decide
  rw [mark, mark, ofKey_content hraw]

omit [Runtime] in
theorem contents_ofKey (key : PyStr) (sections : List Section) :
    contents (ofKey key sections) = ofKey key (contents sections) := by
  rw [contents, contents, ofKey, ofKey, List.filter_map]
  rfl

/-- Blank lines make no difference to verdicts. -/
theorem contents_upsertAll (vs : List Verdict) (sections : List Section) :
    contents (upsertAll [] (updates vs) sections) = upsertAll [] (updates vs) (contents sections) := by
  refine upsertAll_map (fun o ho body => ?_) rfl sections
  obtain ⟨v, _, rfl⟩ := List.mem_map.mp ho
  refine setAll_filter (fun u hu w => ?_) body
  have hfield : u.1 ∈ writtenFields := by
    cases ha : v.assignments with
    | none =>
      rw [ha] at hu
      cases hu
    | some us =>
      rw [ha] at hu
      exact assignments_fields ha u hu
  have hne : (u.1 == raw) = false := beq_false_of_ne (writtenFields_names _ hfield).1
  rw [isBlank, hne]
  rfl

/-- The same verdicts change nothing the second time. -/
theorem updates_idempotent (vs : List Verdict) (sections : List Section) :
    upsertAll [] (updates vs) (upsertAll [] (updates vs) sections) = upsertAll [] (updates vs) sections := by
  refine upsertAll_upsertAll (fun key body => ?_) [] sections
  rw [effect_updates, effect_updates, setAll_setAll]

omit [Runtime] in
/-- What is written depends on the lines that are not blank. -/
theorem render_congr {pre pre' : List PyStr} {sections sections' : List Section}
    (hpre : ∀ line ∈ pre, NoBreak line) (hpre' : ∀ line ∈ pre', NoBreak line)
    (hshown : shownLines pre = shownLines pre') (hc : contents sections = contents sections') :
    renderLedger pre sections = renderLedger pre' sections' := by
  have hlines (l : List Section) : l.flatMap sectionLines = (contents l).flatMap sectionLines := by
    rw [contents, List.flatMap_map]
    refine List.flatMap_congr fun s _ => ?_
    rw [sectionLines, sectionLines, content_lines]
  have hjoin : rstripFeeds (joinWith ['\n'] pre) = rstripFeeds (joinWith ['\n'] pre') := by
    rw [rstripFeeds_join hpre, rstripFeeds_join hpre']
    exact congrArg _ hshown
  rw [renderLedger, renderLedger, hlines sections, hc, ← hlines, hjoin]

/-- The last verdict about a key decides the mark of its row. -/
theorem assigned_mark (hsome : ∀ v ∈ vs, v.assignments ≠ none) (hk : key ∈ vs.map (·.key)) :
    ∃ v, (vs.filter fun v => decide (v.key = key)).getLast? = some v ∧ ∃ src,
      strippedText "source_url".toList v.obj = some src ∧
      (lastOf verifiedBy (assigned key vs) = some verifierMark ↔ v.Confirms src) ∧
      lastOf verifiedBy (assigned key vs) ≠ none := by
  obtain ⟨w, hw, hwk⟩ := List.mem_map.mp hk
  have hne : (vs.filter fun v => decide (v.key = key)) ≠ [] :=
    List.ne_nil_of_mem (List.mem_filter.mpr ⟨hw, decide_eq_true hwk⟩)
  refine ⟨_, List.getLast?_eq_some_getLast hne, ?_⟩
  have hmem := List.mem_of_mem_filter (List.getLast_mem hne)
  obtain ⟨us, hus⟩ := Option.ne_none_iff_exists'.mp (hsome _ hmem)
  obtain ⟨src, hsrc, hconfirms, hmark⟩ := assignments_mark hus
  have hlast : lastOf verifiedBy (assigned key vs) = lastOf verifiedBy us := by
    have hsplit := List.dropLast_append_getLast hne
    rw [assigned, ← hsplit, List.flatMap_append, List.flatMap_singleton, hus, Option.getD_some]
    obtain ⟨value, hvalue⟩ := Option.ne_none_iff_exists'.mp hmark
    rw [hvalue, lastOf, ofKey_append]
    obtain ⟨q, hq, hqv⟩ := Option.map_eq_some_iff.mp hvalue
    have hne' : ofKey verifiedBy us ≠ [] := by
      intro hnil
      rw [hnil] at hq
      cases hq
    rw [List.getLast?_append_of_ne_nil _ hne', hq, Option.map_some, hqv]
  exact ⟨src, hsrc, by rw [hlast]; exact hconfirms, by rw [hlast]; exact hmark⟩

/-- What applying verdicts to a ledger should do, where the rows that are read, written and read again are
compared without their blank lines. -/
structure Confines (file new : PyStr) (vs : List Verdict) (before after : List PyStr × List Section)
    (written : List Section) : Prop where
  read : parseLedgerSections (universalNewlines file) = some before
  applied : applyVerdicts before.2 vs = some written
  returned : applyLedgerVerdicts file vs = some new
  reread : parseLedgerSections (universalNewlines new) = some after
  /-- The new text says exactly the rows that were written. -/
  faithful : contents after.2 = contents written
  /-- Rows that no verdict names stay. -/
  frame : ∀ key, (∀ v ∈ vs, v.key ≠ key) →
    contents (ofKey key after.2) = contents (ofKey key before.2)
  /-- A row is marked as verified only by the last verdict about it, which names a source. -/
  marks : ∀ s ∈ after.2, mark s.2 = some verifierMark → (s.1, content s.2) ∈ contents before.2 ∨
    ∃ v, (vs.filter fun v => decide (v.key = s.1)).getLast? = some v ∧ ∃ src,
      strippedText "source_url".toList v.obj = some src ∧ v.Confirms src
  /-- The same verdicts change nothing more. -/
  stable : applyLedgerVerdicts new vs = some new

def Confined (file : PyStr) (vs : List Verdict) : Prop :=
  ∃ new before after written, Confines file new vs before after written

theorem assignments_ne_none : v.assignments ≠ none ↔
    strippedText "source_url".toList v.obj ≠ none ∧ strippedText "note".toList v.obj ≠ none := by
  unfold Verdict.assignments
  generalize strippedText "source_url".toList v.obj = source
  generalize strippedText "note".toList v.obj = note
  cases source with
  | none => exact iff_of_false (fun h => h rfl) fun h => h.1 rfl
  | some src =>
    cases note with
    | none => exact iff_of_false (fun h => h rfl) fun h => h.2 rfl
    | some text => exact iff_of_true nofun ⟨nofun, nofun⟩

theorem storable_of_confined {file : PyStr} (h : Confined file vs) : Storable file vs := by
  obtain ⟨new, before, after, written, hc⟩ := h
  have hread := hc.read
  rw [parse_universalNewlines] at hread
  have hrows := parse_read hread
  have happlied := hc.applied
  rw [applyVerdicts_eq] at happlied
  split_ifs at happlied with hsome
  obtain rfl := Option.some.inj happlied
  have hnew : renderLedger before.1 (upsertAll [] (updates vs) before.2) = new := by
    have hr := hc.returned
    rw [applyLedgerVerdicts, hc.read, Option.bind_some, hc.applied] at hr
    exact Option.some.inj hr
  have htrips : RoundTrips before.1 (upsertAll [] (updates vs) before.2) := by
    refine ⟨after, ?_, hc.faithful⟩
    rw [hnew, ← parse_universalNewlines]
    exact hc.reread
  obtain ⟨hold, hkeys, hvalues⟩ := (safe_written hrows.2).mp (safe_of_roundTrips hrows.1 htrips)
  have hunique (p : List PyStr × List Section) (hp : parseLedgerSections file = some p) : p = before :=
    Option.some.inj (hp.symm.trans hread)
  exact {
    headings := parse_ne_none.mp (by rw [hread]; exact Option.some_ne_none _)
    rows := fun p hp => hunique p hp ▸ hold
    texts := fun v hv => assignments_ne_none.mp (hsome v hv)
    keys := fun p hp => hunique p hp ▸ hkeys
    values := hvalues }

/-- Every row after the verdicts is an old one, or was marked by the last verdict about its key. -/
theorem written_marks (hsome : ∀ v ∈ vs, v.assignments ≠ none) {s : Section}
    (hs : s ∈ upsertAll [] (updates vs) sections) (hm : mark s.2 = some verifierMark) :
    s ∈ sections ∨ ∃ v, (vs.filter fun v => decide (v.key = s.1)).getLast? = some v ∧ ∃ src,
      strippedText "source_url".toList v.obj = some src ∧ v.Confirms src := by
  have hin := mem_ofKey.mpr ⟨hs, rfl⟩
  by_cases hk : s.1 ∈ vs.map (·.key)
  · rw [ofKey_named hk] at hin
    rcases List.mem_append.mp hin with hd | he
    · exact .inl (mem_ofKey.mp ((List.dropLast_sublist _).mem hd)).1
    · right
      obtain ⟨v, hv, src, hsrc, hconfirms, hmark⟩ := assigned_mark hsome hk
      refine ⟨v, hv, src, hsrc, hconfirms.mp ?_⟩
      have hs2 : s.2 = setAll (assigned s.1 vs) (lastOr [] s.1 sections) :=
        congrArg Prod.snd (List.mem_singleton.mp he)
      obtain ⟨value, hvalue⟩ := Option.ne_none_iff_exists'.mp hmark
      rw [hs2, mark, ofKey_setAll, hvalue] at hm
      rw [hvalue]
      exact hm
  · rw [ofKey_unnamed hk] at hin
    exact .inl (mem_ofKey.mp hin).1

theorem confined_of_storable {file : PyStr} (h : Storable file vs) : Confined file vs := by
  obtain ⟨before, hread⟩ := Option.ne_none_iff_exists'.mp (parse_ne_none.mpr h.headings)
  have hrows := parse_read hread
  have hsome : ∀ v ∈ vs, v.assignments ≠ none := fun v hv => assignments_ne_none.mpr (h.texts v hv)
  have hsafe := (safe_written hrows.2).mpr ⟨h.rows before hread, h.keys before hread, h.values⟩
  have happlied : applyVerdicts before.2 vs = some (upsertAll [] (updates vs) before.2) := by
    rw [applyVerdicts_eq, if_pos hsome]
  obtain ⟨after, hafter, hfaithful, hshown⟩ := roundTrips_of_safe hrows.1 hsafe
  have hagain := parse_read hafter
  have hcontents : contents (upsertAll [] (updates vs) after.2) =
      contents (upsertAll [] (updates vs) before.2) := by
    rw [contents_upsertAll, hfaithful, ← contents_upsertAll, updates_idempotent]
  refine ⟨renderLedger before.1 (upsertAll [] (updates vs) before.2), before, after,
    upsertAll [] (updates vs) before.2, ?_⟩
  exact {
    read := (parse_universalNewlines _).trans hread
    applied := happlied
    returned := by
      rw [applyLedgerVerdicts, parse_universalNewlines, hread, Option.bind_some, happlied]
      rfl
    reread := (parse_universalNewlines _).trans hafter
    faithful := hfaithful
    frame := by
      intro key hkey
      have hk : key ∉ vs.map (·.key) := by
        intro hm
        obtain ⟨v, hv, he⟩ := List.mem_map.mp hm
        exact hkey v hv he
      rw [contents_ofKey, hfaithful, ← contents_ofKey, ofKey_unnamed hk]
    marks := by
      intro s hs hm
      have hmem : (s.1, content s.2) ∈ contents (upsertAll [] (updates vs) before.2) :=
        hfaithful ▸ List.mem_map_of_mem hs
      obtain ⟨s', hs', he⟩ := List.mem_map.mp hmem
      obtain ⟨hkey, hbody⟩ := Prod.mk.inj he
      have hm' : mark s'.2 = some verifierMark := by
        rw [← mark_content, hbody, mark_content]
        exact hm
      rcases written_marks hsome hs' hm' with hold | hlast
      · left
        rw [← hkey, ← hbody]
        exact List.mem_map_of_mem hold
      · right
        rw [← hkey]
        exact hlast
    stable := by
      rw [applyLedgerVerdicts, parse_universalNewlines, hafter, Option.bind_some, applyVerdicts_eq,
        if_pos hsome, Option.map_some]
      refine congrArg some ?_
      exact render_congr (fun line hl => (hagain.1 line hl).1) (fun line hl => (hrows.1 line hl).1) hshown
        hcontents }

end Verdicts

/-- A rejection whose note goes on with a row of its own. -/
def smugglingVerdict : Verdict where
  obj := [("key".toList, .str "a".toList), ("verdict".toList, .str "rejected".toList),
    ("note".toList, .str "x\n## b\n- verified-by: verifier".toList)]
  key := "a".toList
  ruling := .rejected
  key_eq := rfl
  ruling_eq := rfl

end Danus.WritePaper.References
